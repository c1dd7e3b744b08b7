import BenchCover.Proofs.Number.Nearest
import BenchCover.Proofs.Suite.Counts
import BenchCover.Proofs.Suite.Passes

/-!
# Rows and total of an overlap

An overlap is described without the maps that it is computed with: `Suite.overlap_spec`.

**Rows.**  The row of a micro benchmark has the nodes of both graphs and those that are in both
(`NodeOverlap.IsRow`).

**Total.**  The total counts in how many rows a function is.  Its shared functions are the common
ones of its other two sides, although they are collected from the rows and not intersected
(`SuiteOverlap.AddsUp`).  A further row takes nothing away from it (`SuiteOverlap.GrownFrom`).

**Restriction.**  When all graphs were read with one registry, the overlap of the project is what is
left of the overlap of all functions without those that are not of the project
(`Suite.BuiltWith.overlap_project`).
-/

namespace BenchCover

/-! ## Shares -/

namespace NodeOverlap

variable {overlap : NodeOverlap}

/-- **The share of an overlap** is the quotient of the numbers of shared functions and of system
functions, rounded to the nearest number; without system functions it is zero. -/
structure TellsShare (overlap : NodeOverlap) : Prop where
  of_none : overlap.systemNodes.size = 0 → overlap.share = .zero false
  of_some : 0 < overlap.systemNodes.size →
    overlap.share = .ofRatio false overlap.sharedNodes.size overlap.systemNodes.size ∧
    overlap.share.IsNearest overlap.sharedNodes.size overlap.systemNodes.size
  atMostOne : overlap.share.AtMostOne

lemma tellsShare_withShare (hle : overlap.sharedNodes.size ≤ overlap.systemNodes.size) :
    overlap.withShare.TellsShare := by
  rcases Nat.eq_zero_or_pos overlap.systemNodes.size with hnone | hsome
  · have hshare : overlap.withShare.share = .zero false := if_pos hnone
    exact
      { of_none := fun _ => hshare
        of_some := fun hsome => absurd hnone (Nat.ne_of_gt hsome)
        atMostOne := hshare ▸ ⟨0, _, rfl, Nat.zero_le _⟩ }
  · have hshare : overlap.withShare.share
        = .ofRatio false overlap.sharedNodes.size overlap.systemNodes.size :=
      if_neg (Nat.ne_of_gt hsome)
    obtain ⟨hnearest, hone⟩ := Binary64.isNearest_ofRatio hsome hle
    exact
      { of_none := fun hnone => absurd hnone (Nat.ne_of_gt hsome)
        of_some := fun _ => ⟨hshare, hshare ▸ hnearest⟩
        atMostOne := hshare ▸ hone }

end NodeOverlap

/-! ## Rows -/

/-- **A node of a graph** that is counted: one of its functions, and one of the project if only the
project is looked at. -/
def CallGraph.HasNode (g : CallGraph) (projects : ProjectPrefixes) (projectOnly : Bool)
    (id : FunctionId) : Prop :=
  ∃ f ∈ g.functions, f.id = id ∧ (projectOnly = true → projects.covers f.name = true)

namespace NodeOverlap

variable {projects : ProjectPrefixes} {projectOnly : Bool} {systemName microName : String}
  {system micro : CallGraph}

/-- **The row of two graphs.** -/
structure IsRow (row : NodeOverlap) (projects : ProjectPrefixes) (projectOnly : Bool)
    (system micro : CallGraph) : Prop where
  system_iff : ∀ id, id ∈ row.systemNodes.keys ↔ system.HasNode projects projectOnly id
  micro_iff : ∀ id, id ∈ row.microNodes.keys ↔ micro.HasNode projects projectOnly id
  shared_iff : ∀ id, id ∈ row.sharedNodes.keys ↔
    system.HasNode projects projectOnly id ∧ micro.HasNode projects projectOnly id
  shared_le : row.sharedNodes.size ≤ min row.systemNodes.size row.microNodes.size
  share : row.TellsShare

theorem isRow_between :
    (between projects projectOnly systemName microName system micro).IsRow projects projectOnly
      system micro := by
  have hshared : ∀ id ∈ (between projects projectOnly systemName microName system
      micro).sharedNodes.keys, id ∈ (NodeCounts.ofGraph projects projectOnly system).keys ∧
        id ∈ (NodeCounts.ofGraph projects projectOnly micro).keys :=
    fun id => mem_nodes_between_shared.1
  have hsystem := SortedMap.size_le_size fun id hid => (hshared id hid).1
  have hmicro := SortedMap.size_le_size fun id hid => (hshared id hid).2
  exact
    { system_iff := fun _ => NodeCounts.mem_keys_ofGraph
      micro_iff := fun _ => NodeCounts.mem_keys_ofGraph
      shared_iff := fun _ => mem_nodes_between_shared.trans
        (and_congr NodeCounts.mem_keys_ofGraph NodeCounts.mem_keys_ofGraph)
      shared_le := Nat.le_min.2 ⟨hsystem, hmicro⟩
      share := tellsShare_withShare hsystem }

end NodeOverlap

/-! ## The total -/

/-- In how many rows a function is. -/
def SuiteOverlap.rowsWith (overlap : SuiteOverlap) (side : OverlapSide) (id : FunctionId) : ℕ :=
  overlap.micros.values.countP fun row => id ∈ (row.nodes side).keys

/-- **An overlap whose total goes with its rows.** -/
structure SuiteOverlap.AddsUp (overlap : SuiteOverlap) : Prop where
  /-- A function counts once for every row that has it, and is left out if none has. -/
  count_iff : ∀ side id n, (overlap.total.nodes side).lookup id = some n ↔
    0 < n ∧ n = overlap.rowsWith side id
  shared_iff : ∀ id, id ∈ overlap.total.sharedNodes.keys ↔
    id ∈ overlap.total.systemNodes.keys ∧ id ∈ overlap.total.microNodes.keys
  shared_le : overlap.total.sharedNodes.size ≤ overlap.total.systemNodes.size
  share : overlap.total.TellsShare

/-- **An overlap with one more row**: the other rows are what they were, and on each side of the
total a function counts at least as often. -/
structure SuiteOverlap.GrownFrom (grown overlap : SuiteOverlap) (key : String) : Prop where
  rows : ∀ other ≠ key, grown.micros.lookup other = overlap.micros.lookup other
  counts : ∀ side id n, (overlap.total.nodes side).lookup id = some n →
    ∃ n' ≥ n, (grown.total.nodes side).lookup id = some n'

namespace Suite

variable {suite : Suite} {projects : ProjectPrefixes} {projectOnly : Bool} {side : OverlapSide}
  {id : FunctionId} {n : ℕ} {key : String}

lemma rowsWith_overlap :
    (suite.overlap projects projectOnly).rowsWith side id = suite.micros.entries.countP fun entry =>
      id ∈ ((NodeOverlap.between projects projectOnly suite.system entry.1 suite.systemGraph
        entry.2).nodes side).keys := by
  rw [SuiteOverlap.rowsWith, overlap, SortedMap.values, SortedMap.map, List.map_map, List.countP_map]
  rfl

/-- **Looking up a function in the total** gives the number of rows that have it. -/
theorem lookup_total_iff :
    ((suite.overlap projects projectOnly).total.nodes side).lookup id = some n ↔
      0 < n ∧ n = (suite.overlap projects projectOnly).rowsWith side id := by
  have hmem : id ∈ ((suite.overlap projects projectOnly).total.nodes side).keys ↔
      0 < (suite.overlap projects projectOnly).rowsWith side id := by
    rw [suite.mem_total_iff, rowsWith_overlap, List.countP_pos_iff]
    simp only [SortedMap.lookup_eq_some_iff, decide_eq_true_eq, Prod.exists]
  have hcount : ((suite.overlap projects projectOnly).total.nodes side).count id
      = (suite.overlap projects projectOnly).rowsWith side id := by
    rw [suite.count_total, rowsWith_overlap]
  rw [NodeCounts.lookup_eq_some_iff, hmem, hcount]
  constructor
  · rintro ⟨hpos, rfl⟩
    exact ⟨hpos, rfl⟩
  · rintro ⟨hpos, rfl⟩
    exact ⟨hpos, rfl⟩

/-- The system functions of one row are those of all rows, so that a function on both sides of the
total is on both sides of some row. -/
lemma mem_shared_total_iff :
    id ∈ (suite.overlap projects projectOnly).total.sharedNodes.keys ↔
      id ∈ (suite.overlap projects projectOnly).total.systemNodes.keys ∧
        id ∈ (suite.overlap projects projectOnly).total.microNodes.keys := by
  have hsystem := suite.mem_total_iff projects projectOnly .system id
  have hmicro := suite.mem_total_iff projects projectOnly .micro id
  simp only [NodeOverlap.nodes] at hsystem hmicro
  rw [suite.mem_sharedNodes_total_iff, hsystem, hmicro]
  constructor
  · rintro ⟨hid, key, micro, hlookup, hidMicro⟩
    exact ⟨⟨key, micro, hlookup, hid⟩, key, micro, hlookup, hidMicro⟩
  · rintro ⟨⟨_, _, _, hid⟩, hidMicro⟩
    exact ⟨hid, hidMicro⟩

theorem addsUp_overlap : (suite.overlap projects projectOnly).AddsUp where
  count_iff := fun _ _ _ => lookup_total_iff
  shared_iff := fun _ => mem_shared_total_iff
  shared_le := SortedMap.size_le_size fun _ hid => (mem_shared_total_iff.1 hid).1
  share := NodeOverlap.tellsShare_withShare
    (SortedMap.size_le_size fun _ hid => (mem_shared_total_iff.1 hid).1)

/-- A function is in all the rows in which it was before a micro benchmark was added. -/
lemma rowsWith_le_insert (hnew : key ∉ suite.micros.keys) (micro : CallGraph) :
    (suite.overlap projects projectOnly).rowsWith side id
      ≤ ((suite.withMicros (suite.micros.insert key micro)).overlap projects
          projectOnly).rowsWith side id := by
  rw [rowsWith_overlap, rowsWith_overlap, withMicros,
    (SortedMap.perm_insert hnew micro).countP_eq, List.countP_cons]
  exact Nat.le_add_right _ _

theorem grownFrom_insert (hnew : key ∉ suite.micros.keys) (micro : CallGraph) :
    ((suite.withMicros (suite.micros.insert key micro)).overlap projects projectOnly).GrownFrom
      (suite.overlap projects projectOnly) key where
  rows := by
    intro other hother
    rw [lookup_overlap, lookup_overlap, withMicros, SortedMap.lookup_insert, if_neg hother.symm]
  counts := by
    intro side id n hlookup
    obtain ⟨hpos, rfl⟩ := lookup_total_iff.1 hlookup
    have hle : (suite.overlap projects projectOnly).rowsWith side id
        ≤ ((suite.withMicros (suite.micros.insert key micro)).overlap projects
            projectOnly).rowsWith side id := rowsWith_le_insert hnew micro
    exact ⟨_, hle, lookup_total_iff.2 ⟨hpos.trans_le hle, rfl⟩⟩

end Suite

/-! ## Restriction to the project -/

/-- Whether an id stands for a function of the project. -/
def Registry.covers (registry : Registry) (projects : ProjectPrefixes) (id : FunctionId) : Bool :=
  match registry.name id with
  | .ok name => projects.covers name
  | .error _ => false

lemma Registry.covers_of_name {registry : Registry} {projects : ProjectPrefixes} {id : FunctionId}
    {name : String} (hname : registry.name id = .ok name) :
    registry.covers projects id = projects.covers name := by
  rw [Registry.covers, hname]

/-- The counts of the functions of the project. -/
def NodeCounts.restrict (counts : NodeCounts) (registry : Registry) (projects : ProjectPrefixes) :
    NodeCounts :=
  counts.filter fun id _ => registry.covers projects id

namespace NodeOverlap

variable {registry : Registry} {projects : ProjectPrefixes} {systemName microName : String}
  {system micro : CallGraph} {side : OverlapSide} {id : FunctionId}

/-- **The overlap without the functions that are not of the project**, and with the share of those
that are left. -/
def restrict (overlap : NodeOverlap) (registry : Registry) (projects : ProjectPrefixes) :
    NodeOverlap :=
  withShare
    { overlap with
      systemNodes := overlap.systemNodes.restrict registry projects
      microNodes := overlap.microNodes.restrict registry projects
      sharedNodes := overlap.sharedNodes.restrict registry projects }

/-- An overlap with its share is determined by its names and sides. -/
lemma eq_restrict {overlap whole : NodeOverlap} (hshare : overlap.withShare = overlap)
    (hsystem : overlap.systemName = whole.systemName) (hmicro : overlap.microName = whole.microName)
    (hnodes : ∀ side, overlap.nodes side = (whole.nodes side).restrict registry projects) :
    overlap = whole.restrict registry projects := by
  have hsystemNodes : overlap.systemNodes = whole.systemNodes.restrict registry projects :=
    hnodes .system
  have hmicroNodes : overlap.microNodes = whole.microNodes.restrict registry projects :=
    hnodes .micro
  have hsharedNodes : overlap.sharedNodes = whole.sharedNodes.restrict registry projects :=
    hnodes .shared
  rw [← hshare, restrict, ← hsystem, ← hmicro, ← hsystemNodes, ← hmicroNodes, ← hsharedNodes]
  rfl

/-- **The functions on a side of a project row** are those of the row of all functions that belong to
the project. -/
lemma mem_between_project_iff (hsystem : system.NamedBy registry) (hmicro : micro.NamedBy registry) :
    id ∈ ((between projects true systemName microName system micro).nodes side).keys ↔
      id ∈ ((between projects false systemName microName system micro).nodes side).keys ∧
        registry.covers projects id = true := by
  have hside : ∀ projectOnly, id ∈ ((between projects projectOnly systemName microName system
      micro).nodes side).keys ↔
        ∃ name, registry.name id = .ok name ∧ side.names projects projectOnly system micro name := by
    intro projectOnly
    rw [← SortedMap.mem_keySet]
    exact (spells_between hsystem hmicro projects projectOnly systemName microName side).mem_iff id
  rw [hside, hside]
  constructor
  · rintro ⟨name, hname, hinSystem, hinMicro, hcovers⟩
    exact ⟨⟨name, hname, hinSystem, hinMicro, nofun⟩,
      (Registry.covers_of_name hname).trans (hcovers rfl)⟩
  · rintro ⟨⟨name, hname, hinSystem, hinMicro, -⟩, hcovers⟩
    exact ⟨name, hname, hinSystem, hinMicro, fun _ => Registry.covers_of_name hname ▸ hcovers⟩

/-- A row for the project is a restricted row. -/
theorem between_project (hsystem : system.NamedBy registry) (hmicro : micro.NamedBy registry) :
    between projects true systemName microName system micro
      = (between projects false systemName microName system micro).restrict registry projects := by
  refine eq_restrict rfl rfl rfl fun side => SortedMap.eq_of_lookup fun id => Option.ext fun n => ?_
  have hcount : id ∈ ((between projects false systemName microName system micro).nodes side).keys →
      registry.covers projects id = true →
      ((between projects true systemName microName system micro).nodes side).count id
        = ((between projects false systemName microName system micro).nodes side).count id := by
    intro hid hcovers
    have hproject := (mem_between_project_iff hsystem hmicro).2 ⟨hid, hcovers⟩
    rw [count_between hproject, count_between hid]
  rw [NodeCounts.restrict, SortedMap.lookup_filter_eq_some_iff, NodeCounts.lookup_eq_some_iff,
    NodeCounts.lookup_eq_some_iff, mem_between_project_iff hsystem hmicro]
  constructor
  · rintro ⟨⟨hid, hcovers⟩, rfl⟩
    exact ⟨⟨hid, (hcount hid hcovers).symm⟩, hcovers⟩
  · rintro ⟨⟨hid, rfl⟩, hcovers⟩
    exact ⟨⟨hid, hcovers⟩, hcount hid hcovers⟩

end NodeOverlap

/-- The overlaps of a suite without the functions that are not of the project. -/
def SuiteOverlap.restrict (overlap : SuiteOverlap) (registry : Registry)
    (projects : ProjectPrefixes) : SuiteOverlap where
  system := overlap.system
  micros := overlap.micros.map fun _ row => row.restrict registry projects
  total := overlap.total.restrict registry projects

namespace Suite

namespace BuiltWith

variable {suite : Suite} {registry : Registry} {side : OverlapSide} {id : FunctionId} {n : ℕ}

/-- A function of the project is in as many rows for the project as in rows for all functions, and
any other function is in none. -/
lemma rowsWith_project (h : suite.BuiltWith registry) (projects : ProjectPrefixes) :
    (suite.overlap projects true).rowsWith side id
      = if registry.covers projects id then (suite.overlap projects false).rowsWith side id
        else 0 := by
  have hrow : ∀ entry ∈ suite.micros.entries,
      id ∈ ((NodeOverlap.between projects true suite.system entry.1 suite.systemGraph
        entry.2).nodes side).keys ↔
      id ∈ ((NodeOverlap.between projects false suite.system entry.1 suite.systemGraph
        entry.2).nodes side).keys ∧ registry.covers projects id = true := by
    intro entry hentry
    have hmicro := h.micros entry.1 entry.2 (SortedMap.lookup_eq_some_iff.2 hentry)
    exact NodeOverlap.mem_between_project_iff h.system hmicro
  rw [rowsWith_overlap, rowsWith_overlap]
  split_ifs with hcovers
  · refine List.countP_congr fun entry hentry => ?_
    simp [hrow entry hentry, hcovers]
  · refine List.countP_eq_zero.2 fun entry hentry => ?_
    simp [hrow entry hentry, hcovers]

/-- The project total counts what the total counts for functions of the project. -/
lemma lookup_total_project_iff (h : suite.BuiltWith registry) (projects : ProjectPrefixes) :
    ((suite.overlap projects true).total.nodes side).lookup id = some n ↔
      ((suite.overlap projects false).total.nodes side).lookup id = some n ∧
        registry.covers projects id = true := by
  rw [lookup_total_iff, lookup_total_iff, h.rowsWith_project]
  split_ifs with hcovers
  · exact (and_iff_left hcovers).symm
  · exact iff_of_false (fun hzero => absurd hzero.2 (Nat.ne_of_gt hzero.1)) fun hcount =>
      hcovers hcount.2

/-- **The overlap of the project is the restricted overlap of all functions.** -/
theorem overlap_project (h : suite.BuiltWith registry) (projects : ProjectPrefixes) :
    suite.overlap projects true = (suite.overlap projects false).restrict registry projects := by
  have hmicros : (suite.overlap projects true).micros
      = ((suite.overlap projects false).restrict registry projects).micros := by
    refine SortedMap.eq_of_lookup fun key => ?_
    rw [SuiteOverlap.restrict, SortedMap.lookup_map, lookup_overlap, lookup_overlap]
    cases hmicro : suite.micros.lookup key with
    | none => rfl
    | some micro =>
      exact congrArg some (NodeOverlap.between_project h.system (h.micros key micro hmicro))
  have htotal : (suite.overlap projects true).total
      = (suite.overlap projects false).total.restrict registry projects := by
    obtain ⟨hsystem, hmicro⟩ := suite.names_total projects true
    obtain ⟨hsystem', hmicro'⟩ := suite.names_total projects false
    refine NodeOverlap.eq_restrict rfl (hsystem.trans hsystem'.symm) (hmicro.trans hmicro'.symm)
      fun side => SortedMap.eq_of_lookup fun id => Option.ext fun n => ?_
    rw [h.lookup_total_project_iff, NodeCounts.restrict, SortedMap.lookup_filter_eq_some_iff]
  rw [SuiteOverlap.restrict, ← htotal]
  exact congrArg (fun micros => SuiteOverlap.mk _ micros _) hmicros

end BuiltWith

/-! ## The overlap of a suite -/

/-- **What the overlap of a suite tells**, for all functions and for those of the project.

* Each micro benchmark has a row, and its shared functions are the nodes of both graphs.
* The total counts in how many rows a function is on each side, and its share is that of the
  functions that are on both sides of it.
* A micro benchmark under a new key leaves the other rows alone, and counts in the total only grow.
* If all graphs were read with one registry, the overlap of the project is the overlap of all
  functions, restricted to the functions of the project. -/
theorem overlap_spec (suite : Suite) (projects : ProjectPrefixes) (projectOnly : Bool) :
    (suite.overlap projects projectOnly).micros.keys = suite.micros.keys ∧
    (∀ key micro, suite.micros.lookup key = some micro →
      ∃ row, (suite.overlap projects projectOnly).micros.lookup key = some row ∧
        row.IsRow projects projectOnly suite.systemGraph micro) ∧
    (suite.overlap projects projectOnly).AddsUp ∧
    (∀ key micro, key ∉ suite.micros.keys →
      ((suite.withMicros (suite.micros.insert key micro)).overlap projects projectOnly).GrownFrom
        (suite.overlap projects projectOnly) key) ∧
    ∀ registry, suite.BuiltWith registry →
      suite.overlap projects true = (suite.overlap projects false).restrict registry projects := by
  refine ⟨keys_overlap, fun key micro hmicro => ?_, addsUp_overlap,
    fun key micro hnew => grownFrom_insert hnew micro, fun registry h => h.overlap_project projects⟩
  exact ⟨_, lookup_overlap_of_some hmicro, NodeOverlap.isRow_between⟩

/-- The suite shares with its system what a micro benchmark loads and what another one scans. -/
theorem overlap_spec_tracing :
    (∃ row, (tracing.overlap ⟨["p/"]⟩ false).micros.lookup "loads" = some row ∧
      row.IsRow ⟨["p/"]⟩ false tracing.systemGraph
        (registered projectNames [("p/load", 1), ("lib/copy", 1)])) ∧
    ((tracing.withMicros (tracing.micros.insert "scans" .empty)).overlap ⟨["p/"]⟩ false).GrownFrom
      (tracing.overlap ⟨["p/"]⟩ false) "scans" ∧
    tracing.overlap ⟨["p/"]⟩ true
      = (tracing.overlap ⟨["p/"]⟩ false).restrict projectNames ⟨["p/"]⟩ ∧
    (tracing.overlap ⟨["p/"]⟩ false).total.sharedNodes.entries = [(0, 1), (1, 1), (3, 1)] ∧
    (tracing.overlap ⟨["p/"]⟩ true).total.sharedNodes.entries = [(0, 1), (1, 1)] := by
  obtain ⟨-, hrows, -, hgrown, hrestrict⟩ := overlap_spec tracing ⟨["p/"]⟩ false
  exact ⟨hrows "loads" _ rfl, hgrown "scans" .empty (by decide +kernel),
    hrestrict projectNames builtWith_tracing, by decide +kernel, by decide +kernel⟩

end Suite

end BenchCover
